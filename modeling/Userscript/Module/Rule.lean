import Userscript.Path

/-!
# Names of modules

A file is a module by its name alone: it has the extension of modules and is not
excluded.

## Main definitions

* `ModuleRule` — the extension and the excluded names
* `ModuleRule.accepts` — whether a file of a name is a module
-/

namespace Userscript

/-- Which files are modules: those with an extension whose names are not excluded. -/
structure ModuleRule where
  extension : String
  excluded : List String

/-- Whether a file of this name is a module. -/
def ModuleRule.accepts (rule : ModuleRule) (name : String) : Bool :=
  Text.endsWith rule.extension.toList name.toList && !rule.excluded.contains name

end Userscript
