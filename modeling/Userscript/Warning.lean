/-!
# Warnings

A build goes on in spite of many an irregularity and reports it as a warning.

## Main definitions

* `Warning` — a warning: its kind, what it is about and what it says
* `Warning.text` — the line that shows a warning
-/

namespace Userscript

/-- What a warning is about. -/
inductive Warning.Kind where
  /-- A module cannot be read. -/
  | unreadable
  /-- A module is empty. -/
  | empty
  /-- A manifest lists a module that is not there. -/
  | missing
  /-- A module is not in the manifest. -/
  | unlisted
  /-- Two modules have the same name. -/
  | duplicate
  /-- A manifest cannot be read. -/
  | manifest
  /-- No metadata header is found. -/
  | header
  /-- The script is not linted. -/
  | lint
  deriving DecidableEq, Repr

/-- A warning. -/
structure Warning where
  kind : Warning.Kind
  /-- The file, module or tool it is about. -/
  subject : String
  message : String
  deriving DecidableEq, Repr

/-- The word for a kind of warning. -/
def Warning.Kind.word : Warning.Kind → String
  | unreadable => "unreadable"
  | empty => "empty"
  | missing => "missing"
  | unlisted => "unlisted"
  | duplicate => "duplicate"
  | manifest => "manifest"
  | header => "header"
  | lint => "lint"

/-- The line that shows a warning. -/
def Warning.text (w : Warning) : String :=
  "[" ++ w.kind.word ++ "] " ++ w.subject ++ ": " ++ w.message

end Userscript
