import Stepwise.Catalog
import Stepwise.CommandLine.Arguments
import Stepwise.CommandLine.Files
import Stepwise.CommandLine.Help
import Stepwise.CommandLine.Session
import Stepwise.Condition.Evaluator
import Stepwise.Condition.Expr
import Stepwise.Condition.Parser
import Stepwise.Condition.Token
import Stepwise.Context
import Stepwise.Coordinator.Attempt
import Stepwise.Coordinator.Basic
import Stepwise.Coordinator.Machine
import Stepwise.Coordinator.Record
import Stepwise.Decimal.Binary
import Stepwise.Decimal.Layout
import Stepwise.Decimal.Reader
import Stepwise.Decimal.Shortest
import Stepwise.Duration
import Stepwise.Environment
import Stepwise.Event
import Stepwise.Fault
import Stepwise.Issue
import Stepwise.Json.Basic
import Stepwise.Json.Decode
import Stepwise.Json.Printer
import Stepwise.Json.Reader
import Stepwise.Limits
import Stepwise.Main
import Stepwise.Node.Basic
import Stepwise.Node.Record
import Stepwise.Path.Basic
import Stepwise.Path.Reader
import Stepwise.Plan.Estimate
import Stepwise.Plan.Predecessors
import Stepwise.Plan.Stages
import Stepwise.Proofs.Catalog.Distance
import Stepwise.Proofs.Catalog.Suggestion
import Stepwise.Proofs.Condition.Completeness
import Stepwise.Proofs.Condition.Grammar
import Stepwise.Proofs.Condition.Integers
import Stepwise.Proofs.Condition.Laws
import Stepwise.Proofs.Condition.Memory
import Stepwise.Proofs.Condition.Path
import Stepwise.Proofs.Context.Lifecycle
import Stepwise.Proofs.Context.Order
import Stepwise.Proofs.Context.State
import Stepwise.Proofs.Context.Sweep
import Stepwise.Proofs.Coordinator.Accounts
import Stepwise.Proofs.Coordinator.Admission
import Stepwise.Proofs.Coordinator.Answers
import Stepwise.Proofs.Coordinator.Cancellation
import Stepwise.Proofs.Coordinator.History
import Stepwise.Proofs.Coordinator.Deeds
import Stepwise.Proofs.Coordinator.Endings
import Stepwise.Proofs.Coordinator.Exclusion
import Stepwise.Proofs.Coordinator.Gate
import Stepwise.Proofs.Coordinator.Logs
import Stepwise.Proofs.Coordinator.Modes
import Stepwise.Proofs.Coordinator.Notes
import Stepwise.Proofs.Coordinator.Origins
import Stepwise.Proofs.Coordinator.Outlets
import Stepwise.Proofs.Coordinator.Registry
import Stepwise.Proofs.Coordinator.Rest
import Stepwise.Proofs.Coordinator.Retries
import Stepwise.Proofs.Coordinator.Schedule
import Stepwise.Proofs.Coordinator.Session
import Stepwise.Proofs.Coordinator.Settling
import Stepwise.Proofs.Coordinator.Telling
import Stepwise.Proofs.Coordinator.Trials
import Stepwise.Proofs.Decimal.Integer
import Stepwise.Proofs.Decimal.Order
import Stepwise.Proofs.Duration
import Stepwise.Proofs.Node.Record
import Stepwise.Proofs.Node.Traversal
import Stepwise.Proofs.Node.Tree
import Stepwise.Proofs.Path.Agreement
import Stepwise.Proofs.Path.Canonical
import Stepwise.Proofs.Path.Lookup
import Stepwise.Proofs.Path.Parts
import Stepwise.Proofs.Path.Plain
import Stepwise.Proofs.Path.Tokens
import Stepwise.Proofs.Plan.Agreement
import Stepwise.Proofs.Plan.Cover
import Stepwise.Proofs.Plan.Estimate
import Stepwise.Proofs.Plan.Order
import Stepwise.Proofs.Plan.Predecessors
import Stepwise.Proofs.Repository
import Stepwise.Proofs.Response
import Stepwise.Proofs.Run.Above
import Stepwise.Proofs.Run.Act
import Stepwise.Proofs.Run.Advance
import Stepwise.Proofs.Run.Allowance
import Stepwise.Proofs.Run.Aside
import Stepwise.Proofs.Run.Below
import Stepwise.Proofs.Run.Blame
import Stepwise.Proofs.Run.Blocks
import Stepwise.Proofs.Run.Calls
import Stepwise.Proofs.Run.Cancellation
import Stepwise.Proofs.Run.Change
import Stepwise.Proofs.Run.Clock
import Stepwise.Proofs.Run.Collect
import Stepwise.Proofs.Run.Counts
import Stepwise.Proofs.Run.Everywhere
import Stepwise.Proofs.Run.Execution
import Stepwise.Proofs.Run.Forecast
import Stepwise.Proofs.Run.Foretold
import Stepwise.Proofs.Run.Fulfilled
import Stepwise.Proofs.Run.Herald
import Stepwise.Proofs.Run.Independence
import Stepwise.Proofs.Run.Lanes
import Stepwise.Proofs.Run.Laps
import Stepwise.Proofs.Run.Lasting
import Stepwise.Proofs.Run.Lawful
import Stepwise.Proofs.Run.LawfulRun
import Stepwise.Proofs.Run.Outcome
import Stepwise.Proofs.Run.Passage
import Stepwise.Proofs.Run.Placement
import Stepwise.Proofs.Run.Race
import Stepwise.Proofs.Run.Results
import Stepwise.Proofs.Run.Resume
import Stepwise.Proofs.Run.Retrial
import Stepwise.Proofs.Run.Schedule
import Stepwise.Proofs.Run.Shape
import Stepwise.Proofs.Run.Silence
import Stepwise.Proofs.Run.Spending
import Stepwise.Proofs.Run.Standing
import Stepwise.Proofs.Run.State
import Stepwise.Proofs.Run.Telling
import Stepwise.Proofs.Run.Throughout
import Stepwise.Proofs.Run.Ticket
import Stepwise.Proofs.Run.Trail
import Stepwise.Proofs.Run.TreeOrder
import Stepwise.Proofs.Run.Undisturbed
import Stepwise.Proofs.Run.Unheard
import Stepwise.Proofs.Run.Upcoming
import Stepwise.Proofs.Run.Values
import Stepwise.Proofs.Run.Verdicts
import Stepwise.Proofs.Run.Vigil
import Stepwise.Proofs.Run.Waits
import Stepwise.Proofs.Step.Allocation
import Stepwise.Proofs.Step.Draft
import Stepwise.Proofs.Step.Flat
import Stepwise.Proofs.Step.Naming
import Stepwise.Proofs.Step.Outcome
import Stepwise.Proofs.Step.Outline
import Stepwise.Proofs.Step.Reading
import Stepwise.Proofs.Step.Refusal
import Stepwise.Proofs.Step.Shape
import Stepwise.Proofs.Step.Structure
import Stepwise.Proofs.Step.Tree
import Stepwise.Proofs.Table
import Stepwise.Proofs.Template.Dependence
import Stepwise.Proofs.Template.References
import Stepwise.Proofs.Template.Scan
import Stepwise.Proofs.Text.Bytes
import Stepwise.Proofs.Validation
import Stepwise.Repository
import Stepwise.Request
import Stepwise.Response
import Stepwise.Run.Activity
import Stepwise.Run.Machine
import Stepwise.Run.Result
import Stepwise.Run.Resume
import Stepwise.Run.Start
import Stepwise.Run.World
import Stepwise.Settings
import Stepwise.Step.Basic
import Stepwise.Step.Field
import Stepwise.Step.Naming
import Stepwise.Step.Reader
import Stepwise.Step.Tree
import Stepwise.Table
import Stepwise.Template
import Stepwise.Text.Character
import Stepwise.Text.Quoted
import Stepwise.Timestamp
import Stepwise.Toml.Reader
import Stepwise.Toml.Table
import Stepwise.Toml.Writer
import Stepwise.Validation
import Stepwise.Width
import Stepwise.Workflow
import Stepwise.Yaml.Cursor
import Stepwise.Yaml.Node
import Stepwise.Yaml.Plain
import Stepwise.Yaml.Reader
import Stepwise.Yaml.Scalar
import Stepwise.Yaml.Scanner
import Stepwise.Yaml.Token
