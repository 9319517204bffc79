import CommandCompletion.Settings
import CommandCompletion.Toml.Print
import CommandCompletion.Toml.Read

/-!
# Settings as a text

Settings are written as a TOML document with one table for each group. Fields that the
settings do not know are passed over, those that are missing keep their defaults. A group
may also be written as the list of its fields, and a name that is one of a few may be
written as a record with that name as its only member.
-/

set_option autoImplicit false

namespace CommandCompletion

/-- Fields of a record in the order of the text, or of a list in the order of their names,
each of which changes the value so far. -/
def Datum.asFields {α : Type} (names : List String)
    (change : α → String → Datum → Except DecodingFault α) (start : α) :
    Datum → Except DecodingFault α
  | .record members _ => members.foldlM (fun value (name, datum) => change value name datum) start
  | .list items _ =>
    (names.zip items).foldlM (fun value (name, datum) => change value name datum) start
  | .moment => .ok start
  | _ => .error .malformed

/-! ## Reading -/

/-- The name of a shell. -/
def Shell.decode : Datum → Except DecodingFault Shell :=
  Datum.asVariant (Shell.all.map fun shell => (shell.name, shell))

/-- The name of a level. -/
def LogLevel.decode : Datum → Except DecodingFault LogLevel :=
  Datum.asVariant (LogLevel.all.map fun level => (level.name, level))

/-- The defaults for the generation of scripts with one more field. -/
def GenerationSettings.change (settings : GenerationSettings) (name : String) (datum : Datum) :
    Except DecodingFault GenerationSettings :=
  match name with
  | "default_shell" => (Shell.decode datum).map fun shell => { settings with shell }
  | "case_insensitive" => datum.asTruth.map fun ignoreCase => { settings with ignoreCase }
  | "preamble" => datum.asText.map fun path => { settings with preamble := some path }
  | _ => datum.passOver.map fun _ => settings

/-- The defaults for the generation of scripts. -/
def GenerationSettings.decode : Datum → Except DecodingFault GenerationSettings :=
  Datum.asFields ["default_shell", "case_insensitive", "preamble"] GenerationSettings.change {}

/-- The functions of a provider with one more field. -/
def ShellFunctions.change (functions : ShellFunctions) (name : String) (datum : Datum) :
    Except DecodingFault ShellFunctions :=
  match Shell.ofName? name with
  | some shell => datum.asText.map (functions.set shell)
  | none => datum.passOver.map fun _ => functions

/-- The functions of a provider. -/
def ShellFunctions.decode : Datum → Except DecodingFault ShellFunctions :=
  Datum.asFields (Shell.all.map Shell.name) ShellFunctions.change {}

/-- How the program logs, with one more field. -/
def LoggingSettings.change (settings : LoggingSettings) (name : String) (datum : Datum) :
    Except DecodingFault LoggingSettings :=
  match name with
  | "level" => (LogLevel.decode datum).map fun level => { settings with level }
  | "timestamps" => datum.asTruth.map fun timestamps => { settings with timestamps }
  | _ => datum.passOver.map fun _ => settings

/-- How the program logs. -/
def LoggingSettings.decode : Datum → Except DecodingFault LoggingSettings :=
  Datum.asFields ["level", "timestamps"] LoggingSettings.change {}

namespace Settings

/-- The shell functions of all providers. -/
def decodeProviders : Datum → Except DecodingFault (Table ShellFunctions)
  | .record members _ =>
    members.foldlM
      (fun providers (name, datum) =>
        (ShellFunctions.decode datum).map fun functions => providers.insert name functions)
      Table.empty
  | _ => .error .malformed

/-- The settings with one more group. -/
def change (settings : Settings) (name : String) (datum : Datum) :
    Except DecodingFault Settings :=
  match name with
  | "generate" =>
    (GenerationSettings.decode datum).map fun generation => { settings with generation }
  | "providers" => (decodeProviders datum).map fun providers => { settings with providers }
  | "logging" => (LoggingSettings.decode datum).map fun logging => { settings with logging }
  | _ => datum.passOver.map fun _ => settings

/-- The settings of a document. -/
def decode : Datum → Except DecodingFault Settings :=
  Datum.asFields ["generate", "providers", "logging"] change {}

/-- Reads settings. -/
def ofText (text : String) : Except SettingsFault Settings :=
  (Toml.decode decode text.toList).mapError .invalidFormat

/-! ## Writing -/

/-- The table of the defaults for the generation of scripts. -/
def generationTable (settings : GenerationSettings) : Toml.PrintedTable :=
  { path := ["generate"]
    members :=
      [("default_shell", .text settings.shell.name),
        ("case_insensitive", .truth settings.ignoreCase)] ++
      settings.preamble.toList.map fun path => ("preamble", .text path) }

/-- The table of the functions of one provider. -/
def providerTable (provider : String × ShellFunctions) : Toml.PrintedTable :=
  { path := ["providers", provider.1]
    members := Shell.all.filterMap fun shell =>
      (provider.2.get? shell).map fun function => (shell.name, .text function) }

/-- The tables of all providers, or a header alone if there are none. -/
def providerTables (providers : Table ShellFunctions) : List Toml.PrintedTable :=
  if providers.isEmpty then [⟨["providers"], []⟩] else providers.entries.map providerTable

/-- The table of how the program logs. -/
def loggingTable (settings : LoggingSettings) : Toml.PrintedTable :=
  { path := ["logging"]
    members := [("level", .text settings.level.name), ("timestamps", .truth settings.timestamps)] }

/-- Writes settings. -/
def text (settings : Settings) : String :=
  String.ofList <| Toml.PrintedTable.document <|
    generationTable settings.generation :: providerTables settings.providers ++
      [loggingTable settings.logging]

end Settings

end CommandCompletion
