-- The files of a new project: a configuration, a widget with questions and answers, and the
-- components that it uses.
import WidgetSchema.Node.Text
import WidgetSchema.Project.Config
namespace WidgetSchema.Starter

/-! ## Configuration -/

/-- The configuration of a project. The name is written as it is. -/
def configuration (name : String) : String :=
  "# Tooldrawer Project Configuration\n" ++
  "name: " ++ name ++ "\n" ++
  "version: \"0.1.0\"\n" ++
  "\n" ++
  "paths:\n" ++
  "  widgets: widgets\n" ++
  "  stencils: stencils\n" ++
  "  output: .tooldrawer/compiled\n" ++
  "\n" ++
  "assets:\n" ++
  "  base_url: \"http://localhost:4000\"\n"

def ignored : String :=
  "# Tooldrawer compiled output\n" ++
  ".tooldrawer/\n" ++
  "\n" ++
  "# IDE\n" ++
  ".idea/\n" ++
  ".vscode/\n" ++
  "*.swp\n"

/-! ## Widget -/

def question (id question answer : String) : Node :=
  .ofPairs [("id", .string id), ("question", .string question), ("answer", .string answer)]

def defaults : Node :=
  .ofPairs [
    ("title", .string "Frequently asked questions"),
    ("showTitle", .bool true),
    ("background", .string "#ffffff"),
    ("faqs", .array [
      question "shipping" "Do you ship worldwide?" "Yes, to most countries.",
      question "returns" "Can I return an order?" "Within 30 days of delivery."])]

/-- A text field of the template of a question, as it stands in an attribute. -/
def questionField (member label : String) : String :=
  "&lt;tooldrawer-field type=&quot;textfield&quot; path=&quot;faqs.__INDEX__." ++ member ++
    "&quot; label=&quot;" ++ label ++ "&quot; /&gt;"

def html : List String :=
  ["<bob-panel id='content'>",
    "  <tooldrawer-field type='textfield' path='title' label='Title' " ++
      "placeholder='Add a title' />",
    "  <tooldrawer-field type='toggle' path='showTitle' label='Show title' />",
    "  <tooldrawer-divider />",
    "  <tooldrawer-field type='repeater' path='faqs' label='Questions' " ++
      "index-token='__INDEX__' labelPath='faqs.__INDEX__.question' template='" ++
      questionField "question" "Question" ++ questionField "answer" "Answer" ++ "' />",
    "</bob-panel>",
    "<bob-panel id='layout'>",
    "  <tooldrawer-field-wgtappearance type='dropdown-fill' path='background' " ++
      "label='Background' />",
    "</bob-panel>"]

def rules : Node :=
  .ofPairs [
    ("idRules", .array [.ofPairs [
      ("arrayPath", .string "faqs"), ("idKey", .string "id"), ("seedKey", .string "question"),
      ("fallbackPrefix", .string "faq")]]),
    ("coerceRules", .array [.ofPairs [
      ("path", .string "showTitle"), ("type", .string "boolean"), ("default", .bool true)]])]

/-- The definition of the widget. -/
def definition : Node :=
  .ofPairs [
    ("widgetname", .string "faq"), ("displayName", .string "FAQ"), ("defaults", defaults),
    ("html", Node.strings html), ("normalization", rules)]

/-! ## Components -/

def slot (key : String) : String := Template.tagText key.toList

def textfield : ComponentTexts where
  html :=
    "<label class=\"diet-textfield diet-textfield--" ++ slot "size" ++ "\">" ++
    "<span class=\"diet-textfield__label\">" ++ slot "label" ++ "</span>" ++
    "<input class=\"diet-textfield__field\" type=\"text\" placeholder=\"" ++
    slot "placeholder" ++ "\" data-path=\"" ++ slot "path" ++ "\"/></label>"
  spec :=
    "\x7b\n" ++
    "  \"defaults\": [\n" ++
    "    \x7b\n" ++
    "      \"context\": \x7b \"size\": \"md\", \"placeholder\": \"\" \x7d,\n" ++
    "      \"sizeContext\": \x7b \"lg\": \x7b \"placeholder\": \"Type here\" \x7d \x7d\n" ++
    "    \x7d\n" ++
    "  ]\n" ++
    "\x7d\n"

def toggle : String :=
  "<label class=\"diet-toggle\" for=\"" ++ slot "id" ++ "\">" ++
  "<input class=\"diet-toggle__input\" type=\"checkbox\" id=\"" ++ slot "id" ++ "\"/>" ++
  "<span class=\"diet-toggle__label\">" ++ slot "label" ++ "</span></label>"

def repeater : String :=
  "<div class=\"diet-repeater\" data-path=\"" ++ slot "path" ++ "\" data-label-path=\"" ++
  slot "labelPath" ++ "\"><span class=\"diet-repeater__label\">" ++ slot "label" ++ "</span>" ++
  "<template>" ++ slot "template" ++ "</template></div>"

def repeaterScript : String :=
  "document.querySelectorAll('.diet-repeater').forEach((el) => el.dataset.ready = 'true');\n"

def dropdownFill : String :=
  "<div class=\"diet-dropdown-fill\" data-path=\"" ++ slot "path" ++
  "\" data-allow-image=\"" ++ slot "allowImage" ++ "\">" ++
  "<span class=\"diet-dropdown-fill__label\">" ++ slot "label" ++ "</span></div>"

/-- A style sheet with one rule. -/
def style (name rule : String) : String := ".diet-" ++ name ++ " \x7b " ++ rule ++ " \x7d\n"

def componentFile (name ending text : String) : String × String :=
  (Library.file "stencils" name ending, text)

/-! ## All files -/

/-- The files in the order in which they are written, with their texts. -/
def files (name : String) : List (String × String) :=
  [(Config.fileName, configuration name),
    ("widgets/faq/spec.json", definition.pretty ++ "\n"),
    componentFile "textfield" ".html" (textfield.html.getD "" ++ "\n"),
    componentFile "textfield" ".css" (style "textfield" "display: grid; gap: 4px;"),
    componentFile "toggle" ".html" (toggle ++ "\n"),
    componentFile "toggle" ".css" (style "toggle" "display: flex; align-items: center;"),
    componentFile "repeater" ".html" (repeater ++ "\n"),
    componentFile "repeater" ".css" (style "repeater" "display: grid;"),
    componentFile "repeater" ".js" repeaterScript,
    componentFile "dropdown-fill" ".html" (dropdownFill ++ "\n"),
    componentFile "dropdown-fill" ".css" (style "dropdown-fill" "position: relative;"),
    componentFile "textfield" ".spec.json" (textfield.spec.getD ""),
    (".gitignore", ignored)]

end WidgetSchema.Starter
