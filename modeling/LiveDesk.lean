import LiveDesk.Backend.Failure
import LiveDesk.Demonstration
import LiveDesk.Desk
import LiveDesk.Desk.Part
import LiveDesk.Dictionary
import LiveDesk.Feature.Document
import LiveDesk.Feature.Jobs
import LiveDesk.Feature.RuleSimulator
import LiveDesk.Feature.SavedQueries
import LiveDesk.Feature.Session
import LiveDesk.Feature.TableFields
import LiveDesk.Feature.Templates
import LiveDesk.FileTree
import LiveDesk.Journal
import LiveDesk.Json.Magnitude
import LiveDesk.Json.Reader
import LiveDesk.Json.Record
import LiveDesk.Json.Scalar
import LiveDesk.Json.Value
import LiveDesk.Log
import LiveDesk.Main
import LiveDesk.Observable.Channel
import LiveDesk.Observable.Estate
import LiveDesk.Observable.Store
import LiveDesk.Record.Job
import LiveDesk.Record.Page
import LiveDesk.Record.Rule
import LiveDesk.Record.SavedQuery
import LiveDesk.Record.TableField
import LiveDesk.Record.Template
import LiveDesk.Scenario.Play
import LiveDesk.Scenario.Step
import LiveDesk.Scenario.World
import LiveDesk.Settings
import LiveDesk.Storage.Archive
import LiveDesk.Storage.Binary
import LiveDesk.Storage.Cell
import LiveDesk.Storage.Database
import LiveDesk.Storage.Repository
import LiveDesk.Storage.Service
import LiveDesk.Text.Blank
import LiveDesk.Text.Line
import LiveDesk.Text.Quoted
import LiveDesk.Text.Unprintable
import LiveDesk.Uuid
import LiveDesk.Version
import LiveDesk.View
import LiveDesk.Proofs.Observable.Lookup
import LiveDesk.Proofs.Observable.Sources
import LiveDesk.Proofs.Observable.Wiring
import LiveDesk.Proofs.Observable.Nesting
import LiveDesk.Proofs.Observable.Sound
import LiveDesk.Proofs.Observable.Ticks
import LiveDesk.Proofs.Observable.Outcomes
import LiveDesk.Proofs.Observable.Flow
import LiveDesk.Proofs.Observable.Subscribers
import LiveDesk.Proofs.Observable.Publication
import LiveDesk.Proofs.Observable.Consistency
import LiveDesk.Proofs.Observable.Replay
import LiveDesk.Proofs.Observable.History
import LiveDesk.Proofs.Observable.Succession
import LiveDesk.Proofs.Observable.Evaluations
import LiveDesk.Proofs.Observable.Lockstep
import LiveDesk.Proofs.Session.Lives
import LiveDesk.Proofs.Session.Guards
import LiveDesk.Proofs.Session.Flags
import LiveDesk.Proofs.Session.Deeds
import LiveDesk.Proofs.Session.Postings
import LiveDesk.Proofs.RuleSimulator.Simulations
import LiveDesk.Proofs.Jobs.Arrivals
import LiveDesk.Proofs.TableFields.Tables
import LiveDesk.Proofs.TableFields.Ownership
import LiveDesk.Proofs.TableFields.Edits
import LiveDesk.Proofs.TableFields.Ledger
import LiveDesk.Proofs.Uuid
import LiveDesk.Proofs.Json.Text
import LiveDesk.Proofs.Json.Reading
import LiveDesk.Proofs.Json.Records
import LiveDesk.Proofs.Json.Values
import LiveDesk.Proofs.Record.Documents
import LiveDesk.Proofs.Storage.Rows
import LiveDesk.Proofs.Storage.Refinement
import LiveDesk.Proofs.Storage.Reading
import LiveDesk.Proofs.SavedQueries.Responses
import LiveDesk.Proofs.Templates.Catalogue
import LiveDesk.Proofs.Templates.Refreshes
import LiveDesk.Proofs.Storage.Archive
import LiveDesk.Proofs.Session.Accounts
import LiveDesk.Proofs.Desk.Versions
import LiveDesk.Proofs.Session.Notices
import LiveDesk.Proofs.Desk.Messages
import LiveDesk.Proofs.Observable.Failures
import LiveDesk.Proofs.Observable.Drains
import LiveDesk.Proofs.Observable.Fates
import LiveDesk.Proofs.Observable.Recovery
import LiveDesk.Proofs.Observable.Staleness
import LiveDesk.Proofs.Observable.Lifetimes
import LiveDesk.Proofs.Observable.Holdings
import LiveDesk.Proofs.Observable.Service
import LiveDesk.Proofs.Observable.Estates
import LiveDesk.Proofs.Observable.Records
import LiveDesk.Proofs.Observable.Possessions
import LiveDesk.Proofs.Observable.Remains
import LiveDesk.Proofs.Observable.Broadcast
import LiveDesk.Proofs.Observable.Erasure
import LiveDesk.Proofs.Observable.Indifference
import LiveDesk.Proofs.Observable.Onlookers
import LiveDesk.Proofs.Templates.Placeholders
import LiveDesk.Proofs.Journal
import LiveDesk.Proofs.Session.Requests
import LiveDesk.Proofs.TableFields.Offences
import LiveDesk.Proofs.Log
import LiveDesk.Proofs.Session.Entries
import LiveDesk.Proofs.Storage.Entries
import LiveDesk.Proofs.Desk.Lines
import LiveDesk.Proofs.TableFields.Places
import LiveDesk.Proofs.TableFields.Moves
import LiveDesk.Proofs.Uuid.Spellings
import LiveDesk.Proofs.Storage.Order
import LiveDesk.Proofs.Storage.Listing
import LiveDesk.Proofs.Storage.Usable
import LiveDesk.Proofs.Jobs.Paging
import LiveDesk.Proofs.Text.Words
import LiveDesk.Proofs.SavedQueries.Names
import LiveDesk.Proofs.Storage.Migrations
import LiveDesk.Proofs.Json.Grammar
import LiveDesk.Proofs.Json.Objects
import LiveDesk.Proofs.Settings
