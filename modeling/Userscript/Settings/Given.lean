import Userscript.Settings.Loading

/-!
# Settings that are given by name

Overrides can be given by the names of the settings. Their values are not converted, apart from
paths: a value of another kind than the setting needs stays, and leads to a fault as soon as it
is used in a way that it does not admit. A list in the place of a path is not converted either.

## Main definitions

* `Settings.pathFault?`, `Settings.nameFault?`, `Settings.memberFault?` and those for their
  items — the faults that a use of a value leads to
* `Settings.ofFields` — the overrides that values give
* `Settings.resolveFields` — the settings of a project with such overrides
-/

namespace Userscript.Settings

open Json (ConversionFault)

/-- The names that a value is given as: the texts of its items. There are none if it has no
items. -/
def names (v : Json) : List String := ((v.toList.toOption).getD []).map Json.display

/-- The fault of a value without items. -/
def itemsFault? (v : Json) : Option Fault :=
  match v.toList with
  | .ok _ => none
  | .error fault => some (.conversion fault)

/-- The fault of a value that is used as the name of something below a folder. -/
def nameFault? : Json → Option Fault
  | .text _ => none
  | v => some (.misuse (.below v.givenKind))

/-- The fault of a value whose items are used as names of things below a folder. -/
def namesFault? (v : Json) : Option Fault :=
  itemsFault? v <|> (v.toList.toOption.getD []).findSome? fun item =>
    match item with
    | .text _ => none
    | item => some (.misuse (.below item.kind))

/-- The fault of a value that is used as the path of a file. -/
def pathFault? : Json → Option Fault
  | .text _ => none
  | v => some (.conversion (.notPath v.givenKind))

/-- The folder that a value is given as. A list is none, which shows when it is used as one. -/
def folder : Json → Except ConversionFault Path
  | .list items => .ok (.ofString (Json.list items).givenDisplay)
  | v => path v

/-- The fault of a value that is used as a member of a set. -/
def memberFault? (v : Json) : Option Fault :=
  v.changeable.head?.map fun part => .misuse (.member part.kind)

/-- The fault of a value whose items are used as members of a set. -/
def membersFault? (v : Json) : Option Fault :=
  itemsFault? v <|>
    match v with
    | .list _ => memberFault? v
    | _ => none

/-- Whether a value is a text. -/
def isText : Json → Bool
  | .text _ => true
  | _ => false

/-- The words that a value is given as, up to the first that is none. -/
def words (v : Json) : List String :=
  (((v.toList.toOption).getD []).takeWhile isText).map Json.display

/-- The fault of a value whose items are used as the ends of texts. -/
def wordsFault? (v : Json) : Option Fault :=
  itemsFault? v <|>
    ((v.toList.toOption.getD []).find? fun item => !isText item).map fun item =>
      .misuse (.ending item.kind)

/-- The overrides with the value of one more setting, given by its name. -/
def ofField (o : Overrides) (name : String) (v : Json) : Except Fault Overrides :=
  match name with
  | "source_dir" =>
    (folder v).mapError .conversion |>.map fun x =>
      misused { o with sourceDir := some x } [(.sourceDir, pathFault? v)]
  | "output" => .ok (misused { o with output := some v.display } [(.output, pathFault? v)])
  | "metadata_file" =>
    .ok (misused { o with metadataFile := some v.givenDisplay }
      [(.metadataName, memberFault? v), (.metadataFile, nameFault? v)])
  | "entry" => .ok { o with entry := some v.givenDisplay }
  | "extra_exclude" =>
    .ok (misused { o with extraExclude := some (names v) } [(.extraExclude, membersFault? v)])
  | "manifests" => .ok (misused { o with manifests := some (names v) } [(.manifests, namesFault? v)])
  | "header_candidates" =>
    (paths v).mapError .conversion |>.map fun x => { o with headerCandidates := some x }
  | "cache_file" =>
    .ok (misused { o with cacheFile := some v.givenDisplay } [(.cacheFile, nameFault? v)])
  | "indent_limit" => .ok { o with indentLimit := some (.ofGiven v) }
  | "pattern_keywords" =>
    .ok (misused { o with patternKeywords := some (words v) } [(.patternKeywords, wordsFault? v)])
  | "validator" =>
    .ok (misused { o with validator := some v.givenDisplay } [(.validator, memberFault? v)])
  | "reserved_names" =>
    .ok (misused { o with reservedNames := some (names v) } [(.reservedNames, itemsFault? v)])
  | "stage_timeout" => .ok { o with stageTimeout := some (.ofGiven v) }
  | "self" => .error (.givenTwice "BuildConfig.__init__" name)
  | _ => .error (.noSetting name)
where
  /-- The overrides with the faults that some uses lead to. -/
  misused (o : Overrides) (uses : List (Use × Option Fault)) : Overrides :=
    { o with
      misuses := o.misuses ++ uses.filterMap fun (use, fault) => fault.map (use, ·) }

/-- The overrides that values give to the names of settings; `null` gives none. The extension
of modules cannot be set. -/
def ofFields (values : Table Json) : Except Fault Overrides :=
  (values.filter fun (_, v) => !v.isNull).foldlM (fun o (name, v) => ofField o name v) {}

/-- The names under which the folder and the settings file are given. -/
def placeNames : List String := ["root", "config_path"]

/-- The fault that is found before the settings file is read: a path that is none, or a folder
or a settings file that is given once more. -/
def earlyFault? (values : Table Json) : Option Fault :=
  let noPath := values.findSome? fun (name, v) =>
    let fault? (converted : Except ConversionFault Unit) : Option Fault :=
      match converted with
      | .ok _ => none
      | .error fault => some (.conversion fault)
    if v.isNull then none
    else
      match name with
      | "source_dir" => fault? ((folder v).map fun _ => ())
      | "header_candidates" => fault? ((paths v).map fun _ => ())
      | _ => none
  let twice := (values.find? fun (name, _) => placeNames.contains name).map fun (name, _) =>
    Fault.givenTwice "resolve_config" name
  noPath <|> twice

/-- The settings of a project in a folder, where the overrides are given by the names of the
settings. -/
def resolveFields (root : Path) (file : Option Path) (values : Table Json) : Action Settings := do
  if let some fault := earlyFault? values then Action.fail (.fault fault)
  let found ← load (file.getD (root.child fileName))
  match ofFields values with
  | .ok overrides => settle root (overrides.orElse found)
  | .error fault => Action.fail (.fault fault)

end Userscript.Settings
