import LintHooks.CMake.Arguments
import LintHooks.CMake.BuildDir
import LintHooks.CMake.ConfigureLock
import LintHooks.CMake.Project
import LintHooks.CMake.Trace
import LintHooks.CompileDatabase
import LintHooks.Decimal.Double
import LintHooks.Decimal.Shortest
import LintHooks.Diff.Compact
import LintHooks.Diff.Script
import LintHooks.Diff.Unified
import LintHooks.Failure
import LintHooks.FileSystem.Basic
import LintHooks.Hook.Basic
import LintHooks.Hook.Command
import LintHooks.Hook.Formatting
import LintHooks.Hook.Runner
import LintHooks.Hook.Targets
import LintHooks.Hook.Verdict
import LintHooks.Host.Basic
import LintHooks.Host.Lock
import LintHooks.Host.Log
import LintHooks.Host.Stateful
import LintHooks.Json.Fault
import LintHooks.Json.Number
import LintHooks.Json.Record
import LintHooks.Json.Text
import LintHooks.Json.Value
import LintHooks.Main
import LintHooks.Options.Basic
import LintHooks.Options.Error
import LintHooks.Options.Help
import LintHooks.Options.Invocation
import LintHooks.Options.Parse
import LintHooks.Options.Styled
import LintHooks.Path
import LintHooks.Proofs.Basic
import LintHooks.Proofs.CMake.Acquiring
import LintHooks.Proofs.CMake.BuildDir
import LintHooks.Proofs.CMake.CacheListing
import LintHooks.Proofs.CMake.Choosing
import LintHooks.Proofs.CMake.Cleaning
import LintHooks.Proofs.CMake.Election
import LintHooks.Proofs.CMake.Emptied
import LintHooks.Proofs.CMake.Finding
import LintHooks.Proofs.CMake.Following
import LintHooks.Proofs.CMake.Generated
import LintHooks.Proofs.CMake.Leading
import LintHooks.Proofs.CMake.MissingTool
import LintHooks.Proofs.CMake.Overrides
import LintHooks.Proofs.CMake.PlatformArguments
import LintHooks.Proofs.CMake.TraceLog
import LintHooks.Proofs.CMake.TraceScope
import LintHooks.Proofs.CompileDatabase
import LintHooks.Proofs.Diff.Compact
import LintHooks.Proofs.Diff.Hunks
import LintHooks.Proofs.Diff.Meeting
import LintHooks.Proofs.Diff.Patch
import LintHooks.Proofs.Diff.Printing
import LintHooks.Proofs.Diff.Script
import LintHooks.Proofs.Diff.Unified
import LintHooks.Proofs.FileSystem.Changes
import LintHooks.Proofs.FileSystem.Names
import LintHooks.Proofs.FileSystem.Walk
import LintHooks.Proofs.Hook.Arguments
import LintHooks.Proofs.Hook.Batching
import LintHooks.Proofs.Hook.Calls
import LintHooks.Proofs.Hook.Difference
import LintHooks.Proofs.Hook.Formatter
import LintHooks.Proofs.Hook.Noise
import LintHooks.Proofs.Hook.Pattern
import LintHooks.Proofs.Hook.Preparing
import LintHooks.Proofs.Hook.Spellings
import LintHooks.Proofs.Hook.Status
import LintHooks.Proofs.Hook.Targets
import LintHooks.Proofs.Hook.Visits
import LintHooks.Proofs.Host.Invariant
import LintHooks.Proofs.Host.Told
import LintHooks.Proofs.Json.Extent
import LintHooks.Proofs.Json.Grammar
import LintHooks.Proofs.Json.Reading
import LintHooks.Proofs.Json.Records
import LintHooks.Proofs.Json.Scanning
import LintHooks.Proofs.Options.Acceptance
import LintHooks.Proofs.Options.Faults
import LintHooks.Proofs.Options.Grammar
import LintHooks.Proofs.Options.Layout
import LintHooks.Proofs.Options.Platforms
import LintHooks.Proofs.Options.Rendering
import LintHooks.Proofs.Options.RoundTrip
import LintHooks.Proofs.Options.Shorthand
import LintHooks.Proofs.Options.Sorting
import LintHooks.Proofs.Options.Spelling
import LintHooks.Proofs.Options.Stepwise
import LintHooks.Proofs.Path
import LintHooks.Proofs.Settings.Acceptance
import LintHooks.Proofs.Settings.Dump
import LintHooks.Proofs.Settings.Precedence
import LintHooks.Proofs.Settings.Rejection
import LintHooks.Proofs.Settings.Table
import LintHooks.Proofs.Text.Basic
import LintHooks.Proofs.Text.Lines
import LintHooks.Proofs.Text.Order
import LintHooks.Proofs.Text.Utf8
import LintHooks.Proofs.Toml.Distinct
import LintHooks.Proofs.Toml.Pairs
import LintHooks.Proofs.Toml.Quoted
import LintHooks.Proofs.Toml.RootNames
import LintHooks.Proofs.Version
import LintHooks.Settings.Basic
import LintHooks.Settings.Check
import LintHooks.Settings.Dump
import LintHooks.Settings.Layer
import LintHooks.Settings.Load
import LintHooks.Shell.Basic
import LintHooks.Shell.Condition
import LintHooks.Shell.Expansion
import LintHooks.Shell.Launch
import LintHooks.Shell.Printf
import LintHooks.Shell.Run
import LintHooks.Shell.Script
import LintHooks.Shell.Token
import LintHooks.Terminal
import LintHooks.Text.Basic
import LintHooks.Text.Class
import LintHooks.Text.Lines
import LintHooks.Text.Quoted
import LintHooks.Text.Similarity
import LintHooks.Text.Utf8
import LintHooks.Toml.DateTime
import LintHooks.Toml.Document
import LintHooks.Toml.Quoted
import LintHooks.Toml.Reader
import LintHooks.Toml.Tree
import LintHooks.Toml.Value
import LintHooks.Tool.Lookup
import LintHooks.Version
