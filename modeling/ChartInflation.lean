import ChartInflation.CommandLine.Run
import ChartInflation.Machine.Recorded
import ChartInflation.Main
import ChartInflation.Proofs.Inflation.EffectiveValues
import ChartInflation.Proofs.Values.BaseKept
import ChartInflation.Proofs.Values.Identified
import ChartInflation.Proofs.Values.OverlayKept
import ChartInflation.Proofs.Values.Paths
import ChartInflation.Proofs.Values.Idempotence
import ChartInflation.Proofs.Inflation.WritingAgain
import ChartInflation.Proofs.Inflation.FailedWrite
import ChartInflation.Proofs.Inflation.Failures
import ChartInflation.Proofs.CommandLine.Delivery
import ChartInflation.Proofs.CommandLine.ExitCodes
import ChartInflation.Proofs.CommandLine.FileName
import ChartInflation.Proofs.CommandLine.OutputFiles
import ChartInflation.Proofs.Inflation.Output
import ChartInflation.Proofs.Inflation.Steps
import ChartInflation.Proofs.Inflation.Course
import ChartInflation.Proofs.Path
import ChartInflation.Proofs.FileSystem.Onward
import ChartInflation.Proofs.FileSystem.Directories
import ChartInflation.Proofs.Inflation.Confinement
import ChartInflation.Proofs.FileSystem.RealLocation
import ChartInflation.Proofs.Loader
import ChartInflation.Proofs.FileSystem.Extending
import ChartInflation.Proofs.Inflation.ScratchNames
import ChartInflation.Proofs.Inflation.ScratchUses
import ChartInflation.Proofs.Inflation.ScratchLife
import ChartInflation.Proofs.FileSystem.Opening
import ChartInflation.Proofs.Inflation.ScratchPlaces
import ChartInflation.Proofs.Inflation.Twin
import ChartInflation.Proofs.Inflation.OwnPlace
import ChartInflation.Proofs.Inflation.TakingTurns
import ChartInflation.Proofs.Outcome
import ChartInflation.Proofs.Text.Utf8
import ChartInflation.Proofs.Yaml.Character
import ChartInflation.Proofs.Yaml.Moving
import ChartInflation.Proofs.Yaml.Markers
import ChartInflation.Proofs.Yaml.Joining
import ChartInflation.Proofs.Yaml.Printer.Written
import ChartInflation.Proofs.Yaml.Printer.NumberText
import ChartInflation.Proofs.Yaml.Printer.Escapes
import ChartInflation.Proofs.Yaml.Printer.Unmarked
import ChartInflation.Proofs.ResourceStream
import ChartInflation.Proofs.Number.Rounding
import ChartInflation.Proofs.Number.Nearest
import ChartInflation.Proofs.Number.Shortest
import ChartInflation.Proofs.Yaml.Held
import ChartInflation.Proofs.Yaml.Printer.Ambiguity
import ChartInflation.Proofs.Yaml.Printer.NumberMeaning
import ChartInflation.Proofs.Yaml.Printer.Printable
import ChartInflation.Proofs.Yaml.Reading.Plain
import ChartInflation.Proofs.Yaml.Reading.Quoted
import ChartInflation.Proofs.Yaml.Reading.Literal
import ChartInflation.Proofs.Yaml.Reading.Lexer
import ChartInflation.Proofs.Yaml.BareStart
import ChartInflation.Proofs.Yaml.Reading.Inline
import ChartInflation.Proofs.Yaml.Reading.Leaf
import ChartInflation.Proofs.Yaml.Reading.Tree
import ChartInflation.Proofs.Yaml.Reading.Node
import ChartInflation.Proofs.Yaml.Reading.Value
import ChartInflation.Proofs.Yaml.Reading.WrittenTree
import ChartInflation.Proofs.Values.Reloading
import ChartInflation.Proofs.Yaml.Reordering
import ChartInflation.Proofs.Values.Duality
import ChartInflation.Proofs.Values.Identities
import ChartInflation.Proofs.Inflation.Rereading
import ChartInflation.Proofs.Inflation.Separator
import ChartInflation.Proofs.Text.Pieces
import ChartInflation.Proofs.Resources.Acceptance
import ChartInflation.Proofs.Resources.DottedPaths
import ChartInflation.Proofs.Inflation.AdditionalFiles
import ChartInflation.Proofs.Inflation.Version
import ChartInflation.Proofs.Inflation.Arguments
import ChartInflation.Proofs.Inflation.Positionals
import ChartInflation.Proofs.Path.Components
import ChartInflation.Proofs.Chart.Directory
import ChartInflation.Proofs.Chart.Pulling
import ChartInflation.Proofs.Inflation.Parameters
import ChartInflation.Proofs.Inflation.OptionalFields
import ChartInflation.Proofs.Inflation.Pins
import ChartInflation.Proofs.Yaml.Printer.LastLeaf
import ChartInflation.Proofs.CommandLine.ShownValues
import ChartInflation.Proofs.Chart.WrittenConfiguration
import ChartInflation.Proofs.CommandLine.FileOrder
import ChartInflation.Proofs.CommandLine.Arguments
import ChartInflation.Proofs.CommandLine.Variables
import ChartInflation.Proofs.Inflation.ApiVersions
import ChartInflation.Proofs.CommandLine.EmptySettings
