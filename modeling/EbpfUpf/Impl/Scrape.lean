import EbpfUpf.Framework.Text
import EbpfUpf.Impl.Report

/-!
# The metrics page and its readers

`prometheus_text` of `loader/agent.py` writes the page that `/metrics` serves.
`metrics_counter` of `test/native_throughput.py` reads it with a regular
expression, the shell tests with `awk` (`read_metric`). The page is ASCII, and so
`\d` is a digit from 0 to 9.
-/

open Framework

namespace UPF

/-- What stands before the number of stage `name`. -/
def stageLabel (name : String) : Text :=
  "upf_packets_total".toList ++ '{' :: ("stage=".toList ++ '"' :: (name.toList ++ ['"', '}']))

def helpLines : List Text :=
  ["# HELP upf_packets_total UPF packet counters by stage".toList, "# TYPE upf_packets_total counter".toList]

/-- The page, from a dump of `metrics`. -/
def prometheus_text (raw : List Entry) : Except PyError Text := do
  let m ← read_metrics raw
  let lines := helpLines ++ METRIC_NAMES.map fun name => stageLabel name ++ ' ' :: decimal ((m name).getD 0)
  return ['\n'].intercalate lines ++ ['\n']

/-- The expression `upf_packets_total\{stage="…"\}\s+(\d+)` at the beginning of a text. -/
def stageMatch (stage : String) (s : Text) : Option Nat :=
  if startswith (stageLabel stage) s then
    let rest := s.drop (stageLabel stage).length
    let digits := (rest.dropWhile isSpace).takeWhile Char.isDigit
    if (rest.head?.any isSpace) = true ∧ digits ≠ [] then some (Nat.ofDigitChars 10 digits 0) else none
  else none

def metrics_counter (out : Text) (stage : String) : Nat := (search (stageMatch stage) out).getD 0

/-- `$NF`: the last of the words of a line. -/
def lastField (line : Text) : Text :=
  (line.rdropWhile fun c => c = ' ' ∨ c = '\t' ∨ c = '\n').rtakeWhile fun c => ¬(c = ' ' ∨ c = '\t')

/-- `awk '$0 ~ "stage=\"…\"" { print $NF }'`: what is printed. -/
def read_metric (out : Text) (stage : String) : List Text :=
  ((readlines out).filter (contains ("stage=".toList ++ '"' :: (stage.toList ++ ['"'])))).map lastField

end UPF
