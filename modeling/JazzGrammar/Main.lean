/-
The program.
-/

import JazzGrammar.CommandLine

open JazzGrammar

/-- The lines about the use of the program. -/
def helpLines : List String := [
  "Explore Steedman jazz-grammar rewrites of a chord progression",
  "",
  "Usage: steedman [OPTIONS] <PROGRESSION>",
  "",
  "Arguments:",
  "  <PROGRESSION>  Progression as CSV (\"I@4,IV@2,V7@2\"), JSON ('[\"I@4\",\"IV@2\"]' or " ++
    "'[\x7b\"chord\":\"I\",\"duration\":4\x7d]'), or grid notation (\"| I / I / V7 / V7 |\")",
  "",
  "Options:",
  "      --mode <MODE>      Notation of the progression: auto, duration or grid",
  "      --depth <DEPTH>    Maximum number of rule applications to explore",
  "      --steps            List one-step rule applications instead of the depth search",
  "      --grid             Also print each sequence in grid notation",
  "      --json             Emit JSON output",
  "      --config <CONFIG>  YAML file with default settings",
  "  -h, --help             Print help",
  "  -V, --version          Print version"]

/-- The wording of the program. What is wrong with a text in JSON or YAML is told without its
place. -/
def wording : Wording where
  json _ := "the text is no JSON"
  yaml _ := "the content is no mapping of settings"
  stop
    | .overflow => "a number leaves its word\n"
    | .capacity => "a list is too long\n"
  help := Text.join ['\n'] (helpLines.map String.toList) ++ ['\n']
  usage _ := "Usage: steedman [OPTIONS] <PROGRESSION>\n".toList

/-- The content of the settings file of a call, or why it cannot be read. A call without one reads
nothing. -/
def settingsContent (arguments : List Text) : IO (Except Text Text) := do
  match CommandLine.read? {} arguments with
  | some (.run ⟨_, _, _, _, _, _, some path⟩) =>
    try
      return .ok (← IO.FS.readFile (String.ofList path)).toList
    catch cause =>
      return .error (toString cause).toList
  | _ => return .error []

def main (arguments : List String) : IO UInt32 := do
  let texts := arguments.map String.toList
  let content ← settingsContent texts
  let outcome := CommandLine.call wording (fun _ => content) texts
  IO.print (String.ofList outcome.output)
  IO.eprint (String.ofList (outcome.errors wording))
  return outcome.status
