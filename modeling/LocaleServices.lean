import LocaleServices.Adapter.Basic
import LocaleServices.Adapter.Catalog
import LocaleServices.Adapter.Kind
import LocaleServices.Adapter.NameTable
import LocaleServices.Adapter.Preference
import LocaleServices.Adapter.Scripted
import LocaleServices.Ascending
import LocaleServices.Category
import LocaleServices.Demo.Document
import LocaleServices.Demo.Names
import LocaleServices.Demo.Report
import LocaleServices.Locale.AvailabilityKey
import LocaleServices.Locale.Basic
import LocaleServices.Locale.Candidates
import LocaleServices.Locale.Extensions
import LocaleServices.Locale.Identifier
import LocaleServices.Locale.Legacy
import LocaleServices.Locale.Order
import LocaleServices.Locale.Subtag
import LocaleServices.Main
import LocaleServices.Service.Counters
import LocaleServices.Service.Message
import LocaleServices.Service.Pool
import LocaleServices.Service.Registry
import LocaleServices.Service.Request
import LocaleServices.Service.Resolution
import LocaleServices.Service.Session
import LocaleServices.Table
import LocaleServices.Text.Blank
import LocaleServices.Text.Case
import LocaleServices.Text.Decimal
import LocaleServices.Text.Graphic
import LocaleServices.Text.Pieces
import LocaleServices.Text.Quoted
import LocaleServices.Text.Unassigned
import LocaleServices.Proofs.Locale.Members
import LocaleServices.Proofs.Locale.Key
import LocaleServices.Proofs.Locale.Narrowing
import LocaleServices.Proofs.Locale.Repeats
import LocaleServices.Proofs.Service.Effects
import LocaleServices.Proofs.Service.Building
import LocaleServices.Proofs.Service.Construction
import LocaleServices.Proofs.Service.Alike
import LocaleServices.Proofs.Service.Kept
import LocaleServices.Proofs.Service.Memory
import LocaleServices.Proofs.Service.Resolving
import LocaleServices.Proofs.Service.Catalogs
import LocaleServices.Proofs.Service.Completeness
import LocaleServices.Proofs.Service.Gate
import LocaleServices.Proofs.Service.Journal
import LocaleServices.Proofs.Service.History
import LocaleServices.Proofs.Service.Calls
import LocaleServices.Proofs.Service.Frozen
import LocaleServices.Proofs.Service.Accounts
import LocaleServices.Proofs.Service.Availability
import LocaleServices.Proofs.Service.Instances
import LocaleServices.Proofs.Service.Registering
import LocaleServices.Proofs.Locale.Normal
import LocaleServices.Proofs.Locale.Norwegian
import LocaleServices.Proofs.Locale.Losses
import LocaleServices.Proofs.Locale.Grammar
import LocaleServices.Proofs.Locale.Inheritance
import LocaleServices.Proofs.Adapter.Names
import LocaleServices.Proofs.Locale.Reading
import LocaleServices.Proofs.Text.Trimming
import LocaleServices.Proofs.Adapter.Preferences
import LocaleServices.Proofs.Service.Untroubled
import LocaleServices.Proofs.Demo.Answers
import LocaleServices.Proofs.Runs
import LocaleServices.Proofs.Locale.Edits
import LocaleServices.Proofs.Locale.Canonical
import LocaleServices.Proofs.Text.Rejoining
import LocaleServices.Proofs.Adapter.Filling
