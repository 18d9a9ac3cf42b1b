/-!
# Error Reports

What a command that fails tells the user: what it was about to do, and why that did not work, each
reason followed by its own. Several reasons are numbered. A reason of several lines stays indented.

## Main definitions

* `Report`: A failure with its reasons.
* `Report.render`: The text of a report.
* `Output`: What a command leaves behind.
-/

namespace Farmhand

namespace Command

/-- A failure with its reasons. -/
structure Report where
  headline : String
  /-- The reasons, the last of them the deepest. -/
  causes : List String := []
deriving DecidableEq, Inhabited

namespace Report

/-- A text of one or more lines, the first of them after `first`, the others after as many
    blanks as `width` says. -/
def indent (first : String) (width : Nat) (text : String) : String :=
  first ++ String.ofList (text.toList.flatMap fun c =>
    if c = '\n' then c :: List.replicate width ' ' else [c])

/-- A number in front of a reason. -/
def label (n : Nat) : String :=
  let digits := toString n
  String.ofList (List.replicate (5 - digits.length) ' ') ++ digits ++ ": "

/-- Numbered reasons, each on lines of its own. -/
def numbered (n : Nat) : List String → List String
  | [] => []
  | cause :: rest => indent (label n) 7 cause :: numbered (n + 1) rest

/-- The reasons as lines. -/
def causeLines : List String → List String
  | [cause] => [indent "    " 4 cause]
  | causes => numbered 0 causes

/-- The text of a report. -/
def render (r : Report) : String :=
  let head := "Error: " ++ r.headline
  match r.causes with
  | [] => head ++ "\n"
  | causes => "\n".intercalate (head :: "" :: "Caused by:" :: causeLines causes) ++ "\n"

end Report

/-- What a command leaves behind. -/
structure Output where
  code : Nat
  out : String
  err : String
deriving DecidableEq, Inhabited

namespace Output

/-- Lines, each of them ended. -/
def ofLines (lines : List String) : String :=
  String.join (lines.map (· ++ "\n"))

/-- A success that leaves some lines. -/
def success (lines : List String) : Output where
  code := 0
  out := ofLines lines
  err := ""

/-- A failure after some lines. -/
def failure (lines : List String) (r : Report) : Output where
  code := 1
  out := ofLines lines
  err := r.render

/-- What is left behind after some lines if the program breaks off. -/
def broken (lines : List String) (reason : String) : Output where
  code := 101
  out := ofLines lines
  err := reason ++ "\n"

end Output

end Command

end Farmhand
