import SafeCalls.Problem

namespace SafeCalls.Yaml

/-!
# Errors of reading YAML

A text is either no YAML document, or its data are not what is asked for. A problem of the data has
a place: the keys on the way from the whole document to it.
-/

inductive Error where
  | malformed
  | refused (path : List String) (problem : Problem)
  deriving DecidableEq

namespace Error

def message : Error → String
  | malformed => "malformed document"
  | refused [] problem => problem.message .yaml
  | refused path problem => ".".intercalate path ++ ": " ++ problem.message .yaml

end Error

end SafeCalls.Yaml
