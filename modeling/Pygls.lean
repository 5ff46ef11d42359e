import Pygls.Lib.Dict
import Pygls.Lib.Latest
import Pygls.Lib.Run
import Pygls.Lines
import Pygls.PositionCodec
import Pygls.Json
import Pygls.TextDocument
import Pygls.Workspace
import Pygls.TextSync
import Pygls.HeaderLimits
import Pygls.Framing
import Pygls.Exceptions
import Pygls.Protocol
import Pygls.Callbacks
import Pygls.Answers
import Pygls.Exits
import Pygls.Progress
import Pygls.Provenance
import Pygls.LanguageServer
import Pygls.Tables
import Pygls.Shutdown
import Pygls.Directions
import Pygls.Outgoing
import Pygls.Peers
import Pygls.Client
import Pygls.Decoding
import Pygls.Notebooks
import Pygls.Reporting
import Pygls.Routing
import Pygls.Truncation
import Pygls.WorkDone
import Pygls.Schedules
import Pygls.Offsets
import Pygls.LineEnds
import Pygls.ClientLines
import Pygls.Lib.Regex
import Pygls.Words
import Pygls.Arguments
import Pygls.Lib.Generator
import Pygls.Generators
import Pygls.Cancellation
import Pygls.Filing
import Pygls.Driving
import Pygls.Contents
import Pygls.Folders
import Pygls.Versions
import Pygls.NotebookHistory
import Pygls.Rejections
import Pygls.Features
import Pygls.Threads
import Pygls.CommandArguments
import Pygls.Payloads
import Pygls.Lib.Utf
import Pygls.Units
import Pygls.Lib.Percent
import Pygls.UrlParse
import Pygls.Uris
import Pygls.FsPaths
import Pygls.Lib.Footprint
import Pygls.Capabilities
import Pygls.Announcements
import Pygls.Sessions
import Pygls.Transports
import Pygls.ShowMessage
import Pygls.UriParts
import Pygls.Lib.Splice
import Pygls.Batches
import Pygls.Documents
import Pygls.Received
import Pygls.Lifecycle
import Pygls.Yielded
import Pygls.ExecuteCommand
import Pygls.Bystanders
import Pygls.Tokens
import Pygls.Order
import Pygls.Abandoned
import Pygls.Closing
