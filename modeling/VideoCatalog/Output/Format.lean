/-!
How results are shown: the form of the output, and how much of it there is.
-/

namespace VideoCatalog

/-- The form of the output. -/
inductive OutputFormat where
  /-- Lines for a reader, one for each file of interest, and a summary. -/
  | human
  /-- One JSON value. -/
  | json
  /-- The summary alone. -/
  | summary
  deriving DecidableEq

namespace OutputFormat

/-- The word for a form. -/
def label : OutputFormat → String
  | .human => "human"
  | .json => "json"
  | .summary => "summary"

/-- The form that a word stands for. -/
def ofLabel? (s : String) : Option OutputFormat :=
  if s = "human" then some .human
  else if s = "json" then some .json
  else if s = "summary" then some .summary
  else none

end OutputFormat

/-- How much is shown. -/
inductive Verbosity where
  /-- Rejections and failures only. -/
  | quiet
  | normal
  /-- Every file, and figures on the work. -/
  | verbose
  deriving DecidableEq

namespace Verbosity

/-- The verbosity that two switches ask for; quiet wins. -/
def ofFlags (verbose quiet : Bool) : Verbosity :=
  if quiet then .quiet else if verbose then .verbose else .normal

/-- The name of the verbosity. -/
def label : Verbosity → String
  | .quiet => "Quiet"
  | .normal => "Normal"
  | .verbose => "Verbose"

end Verbosity

end VideoCatalog
