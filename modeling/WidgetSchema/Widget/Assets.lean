-- The files that an editor loads for a widget: those of the widget, and those of the components
-- that it uses.
import WidgetSchema.Component.Library
import WidgetSchema.Component.Usage
namespace WidgetSchema

/-- The addresses of the files of a widget. -/
structure WidgetAssets where
  htmlUrl : String
  cssUrl : String
  jsUrl : String
  /-- The style sheets of the components, after the one that all share. -/
  styles : List String
  /-- The scripts of the components. -/
  scripts : List String
  deriving DecidableEq

namespace WidgetAssets

/-- An address without slashes at its end. -/
def root (baseUrl : String) : String :=
  String.ofList (baseUrl.toList.reverse.dropWhile (· == '/')).reverse

def componentUrl (dieter name suffix : String) : String :=
  dieter ++ "/components/" ++ name ++ "/" ++ name ++ suffix

/-- The files of a widget and of the components that it uses, where the library has them. -/
def of (lib : Library) (baseUrl name : String) (usages : Usages) : WidgetAssets :=
  let dieter := root baseUrl ++ "/dieter"
  let widget := root baseUrl ++ "/widgets/" ++ name
  let urls (has : String → Bool) (suffix : String) :=
    (usages.all.filter has).map fun c => componentUrl dieter c suffix
  { htmlUrl := widget ++ "/widget.html"
    cssUrl := widget ++ "/widget.css"
    jsUrl := widget ++ "/widget.client.js"
    styles := (dieter ++ "/tokens/tokens.css") :: urls lib.hasStyles ".css"
    scripts := urls lib.hasScript ".js" }

/-! ## Written form -/

def toNode (a : WidgetAssets) : Node :=
  .object [("htmlUrl", .string a.htmlUrl), ("cssUrl", .string a.cssUrl),
    ("jsUrl", .string a.jsUrl),
    ("dieter", .object [("styles", Node.strings a.styles), ("scripts", Node.strings a.scripts)])]

def componentFiles? (w : Written) : Option (List String × List String) := do
  let r ← Record.ofWritten? ["styles", "scripts"] w
  let styles ← r.required "styles" (Written.listOf? Written.string?)
  let scripts ← r.required "scripts" (Written.listOf? Written.string?)
  return (styles, scripts)

def ofWritten? (w : Written) : Option WidgetAssets := do
  let r ← Record.ofWritten? ["htmlUrl", "cssUrl", "jsUrl", "dieter"] w
  let htmlUrl ← r.required "htmlUrl" Written.string?
  let cssUrl ← r.required "cssUrl" Written.string?
  let jsUrl ← r.required "jsUrl" Written.string?
  let (styles, scripts) ← r.required "dieter" componentFiles?
  return { htmlUrl, cssUrl, jsUrl, styles, scripts }

end WidgetAssets

end WidgetSchema
