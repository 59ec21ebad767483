import Userscript.Module.Rule

/-!
# Changes that matter

While a project is watched, a change of a file leads to a new build if the file could be
a module: its name has the extension of modules, it is not excluded, and a watch does not
ignore it. What a watch ignores in any project comes with the library that watches files, and
is not settled here.

## Main definitions

* `WatchFilter` — what a watch ignores in any project
* `WatchFilter.ignores` — whether a change of a path is ignored
* `ModuleRule.acceptsChange` — whether a change of a path matters
-/

namespace Userscript

/-- What a watch ignores in any project. -/
structure WatchFilter where
  /-- The names of the folders that are ignored with all that is in them. -/
  folders : List String
  /-- Whether a file of a name is ignored. -/
  isAside : String → Bool

namespace WatchFilter

/-- The parts of a path as it is written, without the slashes it begins with. -/
def components (path : String) : List String :=
  Path.pieces (String.ofList (path.toList.dropWhile (· == '/')))

/-- Whether a change of a path is ignored: one of its parts is the name of such a folder, or the
last one that of such a file. -/
def ignores (filter : WatchFilter) (path : String) : Bool :=
  let parts := components path
  parts.any filter.folders.contains || filter.isAside (parts.getLastD "")

end WatchFilter

/-- Whether a change of a path matters. -/
def ModuleRule.acceptsChange (rule : ModuleRule) (filter : WatchFilter) (path : String) : Bool :=
  !filter.ignores path && rule.accepts (Path.ofString path).name

end Userscript
