import DocsMigration.CommandLine.Arguments
import DocsMigration.CommandLine.Messages
import DocsMigration.CommandLine.Program
import DocsMigration.Config.Expansion
import DocsMigration.Config.Load
import DocsMigration.Config.Reading
import DocsMigration.Config.Settings
import DocsMigration.Config.Validation
import DocsMigration.Decimal.Binary64
import DocsMigration.Decimal.Shortest
import DocsMigration.Files.Disk
import DocsMigration.Files.Path
import DocsMigration.Files.Workspace
import DocsMigration.Markdown.Admonition
import DocsMigration.Markdown.Annotation
import DocsMigration.Markdown.Block
import DocsMigration.Markdown.FrontMatter
import DocsMigration.Markdown.Image
import DocsMigration.Markdown.Link
import DocsMigration.Markdown.Page
import DocsMigration.Markdown.Tabs
import DocsMigration.Markdown.Url
import DocsMigration.Migration.Assets
import DocsMigration.Migration.Checkout
import DocsMigration.Migration.Documents
import DocsMigration.Migration.Error
import DocsMigration.Migration.Route
import DocsMigration.Migration.Run
import DocsMigration.Migration.Scaffold
import DocsMigration.Navigation
import DocsMigration.Text.Alphanumeric
import DocsMigration.Text.Basic
import DocsMigration.Text.Case
import DocsMigration.Text.CaseTable
import DocsMigration.Text.Digits
import DocsMigration.Text.Order
import DocsMigration.Text.Ranges
import DocsMigration.Text.Scan
import DocsMigration.Text.Whitespace
import DocsMigration.Text.Word
import DocsMigration.Toml.Document
import DocsMigration.Toml.Scalar
import DocsMigration.Toml.Value
import DocsMigration.Yaml.Cursor
import DocsMigration.Yaml.Document
import DocsMigration.Yaml.Layout
import DocsMigration.Yaml.Node
import DocsMigration.Yaml.Resolution
import DocsMigration.Yaml.Scalar
import DocsMigration.Yaml.Tag
import DocsMigration.Yaml.Token
import DocsMigration.Yaml.Value
import DocsMigration.Proofs.Cuts
import DocsMigration.Proofs.Outline
import DocsMigration.Proofs.Blocks
import DocsMigration.Proofs.Nesting
import DocsMigration.Proofs.Annotations
import DocsMigration.Proofs.Conservation
import DocsMigration.Proofs.Emission
import DocsMigration.Proofs.Ending
import DocsMigration.Proofs.Headers
import DocsMigration.Proofs.Marks
import DocsMigration.Proofs.MergedPages
import DocsMigration.Proofs.Metadata
import DocsMigration.Proofs.Precedence
import DocsMigration.Proofs.Preservation
import DocsMigration.Proofs.Trees
import DocsMigration.Proofs.Walking
import DocsMigration.Proofs.Steps
import DocsMigration.Proofs.Operations
import DocsMigration.Proofs.Copying
import DocsMigration.Proofs.Scanning
import DocsMigration.Proofs.Settings
import DocsMigration.Proofs.Deeds
import DocsMigration.Proofs.Phases
import DocsMigration.Proofs.Destinations
import DocsMigration.Proofs.Confinement
import DocsMigration.Proofs.Effects
import DocsMigration.Proofs.ApartSource
import DocsMigration.Proofs.DeedEffects
import DocsMigration.Proofs.SteadyDeeds
import DocsMigration.Proofs.SteadyRuns
import DocsMigration.Proofs.Convergence
import DocsMigration.Proofs.Ancestors
import DocsMigration.Proofs.PageUrls
import DocsMigration.Proofs.Occurrences
import DocsMigration.Proofs.ShortcodeSigns
import DocsMigration.Proofs.Alike
import DocsMigration.Proofs.PageTasks
import DocsMigration.Proofs.Schedules
import DocsMigration.Proofs.ReferenceKinds
import DocsMigration.Proofs.Rescanning
import DocsMigration.Proofs.LinkLabels
import DocsMigration.Proofs.UnusableSource
import DocsMigration.Proofs.Sections
import DocsMigration.Proofs.TabGroups
import DocsMigration.Proofs.Openings
import DocsMigration.Proofs.Rerooting
import DocsMigration.Proofs.TagAttributes
import DocsMigration.Proofs.Discovery
import DocsMigration.Proofs.NavigationOrder
import DocsMigration.Proofs.BareDollars
import DocsMigration.Proofs.BlankLines
import DocsMigration.Proofs.Delimiters
import DocsMigration.Proofs.LowerCase
import DocsMigration.Proofs.HeaderGrammar
import DocsMigration.Proofs.Rejoining
import DocsMigration.Proofs.TreeCopies
import DocsMigration.Proofs.AssetEffects
import DocsMigration.Proofs.MemberRuns
import DocsMigration.Proofs.Untargeted
import DocsMigration.Proofs.Positions
import DocsMigration.Proofs.Cursors
