import Cascade.CommandLine.Run
import Cascade.FileTree.Listing
import Cascade.Gzip.Inflate
import Cascade.Main
import Cascade.Serve.Response
import Cascade.Watch.Live
import Cascade.Proofs.FileTree.Reads
import Cascade.Proofs.FileTree.Make
import Cascade.Proofs.FileTree.Files
import Cascade.Proofs.Page.Write
import Cascade.Proofs.Page.Content
import Cascade.Proofs.Page.Reads
import Cascade.Proofs.Site.Walk
import Cascade.Proofs.Site.Renderings
import Cascade.Proofs.Site.Scope
import Cascade.Proofs.Site.Visits
import Cascade.Proofs.Site.Locality
import Cascade.Proofs.Page.Sheet
import Cascade.Proofs.Site.Sheets
import Cascade.Proofs.Site.Sources
import Cascade.Proofs.Watch.Changes
import Cascade.Proofs.Site.Order
import Cascade.Proofs.Page.Layers
import Cascade.Proofs.Site.Inheritance
import Cascade.Proofs.Site.Places
import Cascade.Proofs.Page.Markers
import Cascade.Proofs.Site.Standing
import Cascade.Proofs.Watch.Edits
import Cascade.Proofs.FileTree.Ways
import Cascade.Proofs.FileTree.Shut
import Cascade.Proofs.Page.Cells
import Cascade.Proofs.Page.Runs
import Cascade.Proofs.Site.AnyOrder
import Cascade.Proofs.FileTree.Removal
import Cascade.Proofs.Site.Branches
import Cascade.Proofs.Watch.Directories
import Cascade.Proofs.Path.Place
import Cascade.Proofs.FileTree.Below
import Cascade.Proofs.FileTree.Hosts
import Cascade.Proofs.FileTree.Reach
import Cascade.Proofs.Text.Utf8
import Cascade.Proofs.Page.Hosted
import Cascade.Proofs.Site.Published
import Cascade.Proofs.Serve.Inside
import Cascade.Proofs.Serve.Requests
import Cascade.Proofs.Serve.Pages
import Cascade.Proofs.Watch.Confined
import Cascade.Proofs.Site.Coverage
import Cascade.Proofs.Site.Footprint
import Cascade.Proofs.Site.Reports
import Cascade.Proofs.Page.Replay
import Cascade.Proofs.Site.Headed
import Cascade.Proofs.Site.Repetition
import Cascade.Proofs.FileTree.Alike
import Cascade.Proofs.Page.Mending
import Cascade.Proofs.Site.Mending
import Cascade.Proofs.FileTree.Taken
import Cascade.Proofs.Html.OpenTag
import Cascade.Proofs.Html.Requote
import Cascade.Proofs.Page.Lasting
import Cascade.Proofs.Watch.Names
import Cascade.Proofs.Watch.Registered
import Cascade.Proofs.Watch.Removals
import Cascade.Proofs.Gzip.Stored
import Cascade.Proofs.FileTree.Written
import Cascade.Proofs.Page.Compressed
import Cascade.Proofs.Markdown.Ids
import Cascade.Proofs.Markdown.Nested
import Cascade.Proofs.Markdown.Alternative
import Cascade.Proofs.Markdown.Images
import Cascade.Proofs.Html.Enclosed
import Cascade.Proofs.Text.Encoded
import Cascade.Proofs.Page.Spelling
import Cascade.Proofs.Page.Shown
import Cascade.Proofs.Page.Tokenless
import Cascade.Proofs.Path.Extension
import Cascade.Proofs.FileTree.Sound
import Cascade.Proofs.Page.Found
import Cascade.Proofs.Html.Tags
import Cascade.Proofs.Text.Attribute
import Cascade.Proofs.Page.Fenced
import Cascade.Proofs.Page.Elements
import Cascade.Proofs.Page.Escaped
import Cascade.Proofs.Page.Quoted
import Cascade.Proofs.Markdown.Addresses
import Cascade.Proofs.Markdown.Links
import Cascade.Proofs.Page.Overlay
import Cascade.Proofs.Page.Listed
import Cascade.Proofs.Watch.Bursts
import Cascade.Proofs.Site.Titles
import Cascade.Proofs.Number.Digits
import Cascade.Proofs.Site.Precedence
import Cascade.Proofs.Path.Steps
import Cascade.Proofs.Site.DefaultOut
import Cascade.Proofs.FileTree.Cycles
import Cascade.Proofs.Site.Termination
import Cascade.Proofs.Text.LowerCase
import Cascade.Proofs.Markdown.Anchors
import Cascade.Proofs.Markdown.Named
import Cascade.Proofs.Markdown.Headings
import Cascade.Proofs.Markdown.Document
import Cascade.Proofs.Site.Leaves
import Cascade.Proofs.Watch.Mirrors
import Cascade.Proofs.Log
