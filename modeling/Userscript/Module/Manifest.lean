import Userscript.Json.Reader
import Userscript.Log
import Userscript.Module.Order

/-!
# Manifests

A manifest is a JSON list of names, or a text with a name on each line that is not blank;
the suffix of its file says which. The first candidate that is a manifest counts. JSON that
is no list is no manifest, and the next candidate has its turn. JSON is read here however deep
it is nested, and names are texts: halves of surrogate pairs that stand alone are replaced in them.

## Main definitions

* `Manifest.ofJson?`, `Manifest.ofLines` — the manifest in a text
* `Manifest.ofFile` — the manifest in a file, or the `ManifestFault` of its content
* `Manifest.read`, `Manifest.attempt` — the first manifest among some candidates, with an
  error as a failure or as an answer
-/

namespace Userscript.Manifest

/-- The manifest that a JSON value is. -/
def ofJson? (source : Path) : Json → Option Manifest
  | .list items => some { names := items.map Json.display, source := some source }
  | _ => none

/-- The manifest with a name on each line that is not blank. -/
def ofLines (source : Path) (t : Text) : Manifest :=
  let lines := (Text.boundaryLines t).filter fun line => !Text.isBlankText line
  { names := lines.map fun line => String.ofList (Text.trim line), source := some source }

/-- The manifest in a file. There is none if the path leads to no file, if the suffix is
that of no manifest, or if the file holds JSON that is no list. -/
def ofFile (t : Tree) (p : Path) : Except ManifestFault (Option Manifest) := do
  if !t.hasFile p then return none
  else if p.suffix = ".json" then
    let text ← (t.readText p).mapError .unreadable
    let value ← (Json.parse text).mapError .malformed
    return ofJson? p value
  else if p.suffix = ".txt" then
    let text ← (t.readText p).mapError .unreadable
    return some (ofLines p text)
  else return none

/-- The first manifest among some candidates. A candidate that cannot be read is an
error. -/
def read (t : Tree) : List Path → Reading (Option Manifest)
  | [] => return none
  | p :: rest => do
    match ofFile t p with
    | .error fault => throw (.build (.manifest p fault))
    | .ok (some manifest) => return some manifest
    | .ok none =>
      if t.hasFile p && p.suffix = ".json" then
        Reading.note .debug s!"{p} is not a JSON array, ignoring"
      read t rest

/-- The first manifest among some candidates, or the candidate that cannot be read and the
reason. -/
def attempt (t : Tree) (candidates : List Path) :
    Reading (Except (Path × ManifestFault) (Option Manifest)) :=
  tryCatch (do return .ok (← read t candidates)) fun failure =>
    match failure with
    | .build (.manifest path fault) => return .error (path, fault)
    | failure => throw failure

end Userscript.Manifest
