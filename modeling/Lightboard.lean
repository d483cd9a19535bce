import Lightboard.Assembly.Loader
import Lightboard.Assembly.Operand
import Lightboard.Assembly.Printer
import Lightboard.Assembly.Source
import Lightboard.Binary.Pack
import Lightboard.Binary.Wire
import Lightboard.Calendar
import Lightboard.Cli.Commands
import Lightboard.Cli.Flags
import Lightboard.Cli.Script
import Lightboard.Cli.Session
import Lightboard.Clock
import Lightboard.Code.OpCode
import Lightboard.Code.Program
import Lightboard.Code.Tag
import Lightboard.Code.TimePattern
import Lightboard.Code.Value
import Lightboard.Config
import Lightboard.Disk
import Lightboard.Format.Directive
import Lightboard.Format.Template
import Lightboard.Hash64
import Lightboard.Light.Basic
import Lightboard.Log
import Lightboard.Machine.Arithmetic
import Lightboard.Machine.Basic
import Lightboard.Machine.CallStack
import Lightboard.Machine.Error
import Lightboard.Machine.Lighting
import Lightboard.Machine.Output
import Lightboard.Machine.Registers
import Lightboard.Machine.Stage
import Lightboard.Machine.Step
import Lightboard.Machine.Timing
import Lightboard.Main
import Lightboard.Number.Binary64
import Lightboard.Number.Decimal
import Lightboard.Number.Power
import Lightboard.Number.Read
import Lightboard.PathName
import Lightboard.Store.Loader
import Lightboard.Store.Memory
import Lightboard.Store.Recent
import Lightboard.Table
import Lightboard.Text.Basic
import Lightboard.Text.Printable
import Lightboard.Text.Quoted
import Lightboard.Text.Utf8
import Lightboard.Toml.Document
import Lightboard.Toml.Fields
import Lightboard.Toml.Reader
import Lightboard.Toml.Scalar
import Lightboard.Toml.Term
import Lightboard.Units
import Lightboard.Proofs.Machine.Effect
import Lightboard.Proofs.Machine.Updates
import Lightboard.Proofs.Machine.Operators
import Lightboard.Proofs.Machine.Conduct
import Lightboard.Proofs.Machine.CallBalance
import Lightboard.Proofs.Assembly.Named
import Lightboard.Proofs.Machine.Holdings
import Lightboard.Proofs.Machine.Faults
import Lightboard.Proofs.Number.Bits
import Lightboard.Proofs.Number.Fields
import Lightboard.Proofs.Binary.Bounds
import Lightboard.Proofs.Code.Patterns
import Lightboard.Proofs.Code.NextMatch
import Lightboard.Proofs.Binary.StoredForm
import Lightboard.Proofs.Assembly.Reloaded
import Lightboard.Proofs.Machine.Failures
import Lightboard.Proofs.Store.Remembered
import Lightboard.Proofs.Store.Views
import Lightboard.Proofs.Store.Recency
import Lightboard.Proofs.Store.Loading
import Lightboard.Proofs.Machine.CallChanges
import Lightboard.Proofs.Machine.LoopScopes
import Lightboard.Proofs.Machine.Staging
import Lightboard.Proofs.Machine.Causes
import Lightboard.Proofs.Machine.CallTargets
import Lightboard.Proofs.Machine.Discipline
import Lightboard.Proofs.Machine.Globals
import Lightboard.Proofs.Text.Order
import Lightboard.Proofs.Light.Roster
import Lightboard.Proofs.Machine.LightChanges
import Lightboard.Proofs.Machine.Discovery
import Lightboard.Proofs.Format.Segments
import Lightboard.Proofs.Number.Order
import Lightboard.Proofs.Machine.Comparisons
import Lightboard.Proofs.Code.PatternTexts
import Lightboard.Proofs.Machine.Expressions
import Lightboard.Proofs.Units.Rational
import Lightboard.Proofs.Machine.UnitSwitches
import Lightboard.Proofs.Code.Labels
import Lightboard.Proofs.Code.Equality
import Lightboard.Proofs.Code.Unions
import Lightboard.Proofs.Machine.Shadowing
import Lightboard.Proofs.Machine.TimesOfDay
import Lightboard.Proofs.Light.Members
import Lightboard.Proofs.Machine.Coloring
import Lightboard.Proofs.Number.Plain
import Lightboard.Proofs.Assembly.Routines
import Lightboard.Proofs.Text.Escapes
import Lightboard.Proofs.Assembly.Listings
import Lightboard.Proofs.Assembly.Canonical
import Lightboard.Proofs.Light.ZoneWrites
import Lightboard.Proofs.Text.LetterCase
import Lightboard.Proofs.Light.Described
import Lightboard.Proofs.Toml.BasicStrings
import Lightboard.Proofs.Assembly.Words
import Lightboard.Proofs.Machine.Keys
import Lightboard.Proofs.Machine.Pausing
import Lightboard.Proofs.Binary.RoutineOrder
